import SwiftDialect.Proofs.Hearing

/-!
# The explanation of a rejection

A parser gives up at the first thing that is wrong with its tokens, after it has said what that is. Before
that only the scanner reports errors, and declarations draw warnings. So a text that is no program has
exactly one rejection among its diagnostics, and nothing is reported after it.

Main statement: a text is rejected exactly if it has a rejection, which is then the last diagnostic and
the only one of its sort (`rejection_explained_once`).
-/

namespace SwiftDialect

/-! ### Diagnostics that reject nothing -/

/-- What the scanner reports rejects nothing. -/
theorem code_notMem_of_pull {w : Nat} {segments : List Segment} {p : Pull}
    (hp : p ∈ pulls w [] segments) : ∀ d ∈ p.reports, d.code ∉ rejectionCodes := by
  intro d hd
  rcases code_of_mem_pulls hp hd with hcode | hcode <;> rw [hcode] <;> decide

/-- What is heard of statements rejects nothing. -/
theorem Sentence.code_notMem_of_heard {w : Nat} {segments : List Segment} {scopes : Scopes}
    {ss : List Sentence} {ps : List Pull} (htokens : ps.map Pull.token = ss.flatMap tokens)
    (hps : ∀ p ∈ ps, p ∈ pulls w [] segments) :
    ∀ d ∈ heard scopes ss ps, d.code ∉ rejectionCodes := by
  intro d hd
  obtain ⟨p, hp, hdp | ⟨-, rfl⟩⟩ := mem_heard ss htokens hd
  · exact code_notMem_of_pull (hps p hp) d hdp
  · have hwarning : "W0021" ∉ rejectionCodes := by decide
    exact hwarning

theorem Problem.entry_mem_catalogue (pr : Problem) : pr.entry ∈ Entry.catalogue := by
  cases pr <;> exact List.elem_iff.1 rfl

/-- Whatever rejects a text is an error. -/
theorem Problem.severity_of_rejection (pr : Problem) (h : pr.entry.code ∈ rejectionCodes) :
    pr.entry.severity = .error := by
  have hall : ∀ e ∈ Entry.catalogue, e.code ∈ rejectionCodes → e.severity = .error := by decide
  exact hall pr.entry pr.entry_mem_catalogue h

/-! ### Rejected texts -/

/-- The diagnostics of a text: some that reject nothing, and the rejection after them if the text is no
program. -/
theorem parseText_explained (name text : String) (tabWidth : Nat) :
    ∃ before, (∀ d ∈ before, d.code ∉ rejectionCodes) ∧
      ((∃ program, (parseText name text tabWidth).program = some program ∧
          (parseText name text tabWidth).diagnostics = before) ∨
        ((parseText name text tabWidth).program = none ∧
          ∃ (problem : Problem) (place : Location), problem.entry.code ∈ rejectionCodes ∧
            (parseText name text tabWidth).diagnostics = before ++ [problem.diagnose place])) := by
  obtain ⟨segments, hseg⟩ := exists_segmentation text.toList
  rcases parseText_heard name tabWidth hseg with
    ⟨ss, last, p, hpulls, htokens, -, hprogram, hdiagnostics⟩ |
    ⟨ss, last, final, rest, used, bad, pr, moves, hpulls, htokens, -, hst, hprogram, hdiagnostics⟩
  · refine ⟨_, ?_, .inl ⟨_, hprogram, hdiagnostics⟩⟩
    have hmem : ∀ q ∈ last ++ [p], q ∈ pulls tabWidth [] segments := hpulls ▸ fun _ hq => hq
    obtain ⟨hlast, hp⟩ := List.forall_mem_append.1 hmem
    exact List.forall_mem_append.2
      ⟨Sentence.code_notMem_of_heard htokens hlast, code_notMem_of_pull (hp p List.mem_cons_self)⟩
  · rw [← List.append_assoc] at hdiagnostics
    -- the rejection is the last thing heard, and what comes before it rejects nothing
    refine ⟨_, ?_, .inr ⟨hprogram, pr, bad.location, hst.stuck.code_mem, hdiagnostics⟩⟩
    have hmem : ∀ q ∈ last ++ (final ++ rest), q ∈ pulls tabWidth [] segments :=
      hpulls ▸ fun _ hq => hq
    obtain ⟨hlast, hmore⟩ := List.forall_mem_append.1 hmem
    refine List.forall_mem_append.2 ⟨Sentence.code_notMem_of_heard htokens hlast, fun d hd => ?_⟩
    obtain ⟨q, hq, hdq⟩ := List.mem_flatMap.1 hd
    exact code_notMem_of_pull (hmore q (List.mem_append_left _ hq)) d hdq

/-- A text without errors is one that has a result. -/
theorem Parsed.hasErrors_eq_false_iff (p : Parsed) :
    p.hasErrors = false ↔ ∃ program, p.result = .ok program := by
  unfold hasErrors result
  cases p.program with
  | none => simp
  | some program => cases h : Diagnostic.hasErrors p.diagnostics <;> simp

/-- At most one diagnostic of a text is a rejection, and nothing is reported after it. The text is no
program exactly if there is one, and then an error is among its diagnostics. Nothing is wrong with a
text exactly if its program is the result. -/
theorem rejection_explained_once (name text : String) (tabWidth : Nat) :
    (parseText name text tabWidth).diagnostics.countP (·.code ∈ rejectionCodes) ≤ 1 ∧
      ((parseText name text tabWidth).program = none ↔
        ∃ d ∈ (parseText name text tabWidth).diagnostics, d.code ∈ rejectionCodes) ∧
      (∀ before d after, (parseText name text tabWidth).diagnostics = before ++ d :: after →
        d.code ∈ rejectionCodes → after = []) ∧
      ((parseText name text tabWidth).program = none →
        ∃ d ∈ (parseText name text tabWidth).diagnostics, d.severity = .error) ∧
      ((parseText name text tabWidth).hasErrors = false ↔
        ∃ program, (parseText name text tabWidth).result = .ok program) := by
  obtain ⟨quiet, hquiet, ⟨program, hprogram, hds⟩ | ⟨hprogram, pr, place, hcode, hds⟩⟩ :=
    parseText_explained name text tabWidth
  · refine ⟨?_, ?_, ?_, ?_, Parsed.hasErrors_eq_false_iff _⟩
    · rw [hds, List.countP_eq_zero.2 fun d hd => by simpa using hquiet d hd]
      exact Nat.zero_le 1
    · rw [hprogram, hds]
      exact ⟨nofun, fun ⟨d, hd, hcode⟩ => absurd hcode (hquiet d hd)⟩
    · intro before d after heq hcode
      have hmem : d ∈ quiet := by simp [← hds, heq]
      exact absurd hcode (hquiet d hmem)
    · intro hnone
      rw [hprogram] at hnone
      cases hnone
  · have hlast : pr.diagnose place ∈ (parseText name text tabWidth).diagnostics := by simp [hds]
    refine ⟨?_, ?_, ?_, ?_, Parsed.hasErrors_eq_false_iff _⟩
    · rw [hds, List.countP_append, List.countP_eq_zero.2 fun d hd => by simpa using hquiet d hd,
        Nat.zero_add]
      exact List.countP_le_length
    · exact ⟨fun _ => ⟨_, hlast, hcode⟩, fun _ => hprogram⟩
    · intro before d after heq hd
      -- the last diagnostic after a rejection would be the rejection itself
      rcases List.eq_nil_or_concat after with rfl | ⟨middle, x, rfl⟩
      · rfl
      · have hsplit : quiet ++ [pr.diagnose place] = (before ++ d :: middle) ++ [x] := by
          rw [← hds, heq]
          simp
        have hmem : d ∈ quiet := by simp [(List.append_inj' hsplit rfl).1]
        exact absurd hd (hquiet d hmem)
    · exact fun _ => ⟨_, hlast, pr.severity_of_rejection hcode⟩

/-- A repeated name and an unexpected character are heard of before the rejection. -/
theorem rejection_explained_behind_warning :
    (parseText "unit" "let x: Int32; let x: Int32; @ x +;" 8).diagnostics.map Diagnostic.code =
        ["W0021", "E0001", "E0011"] ∧
      (parseText "unit" "let x: Int32; let x: Int32; @ x +;" 8).program = none ∧
      ∀ before d after, (parseText "unit" "let x: Int32; let x: Int32; @ x +;" 8).diagnostics =
        before ++ d :: after → d.code ∈ rejectionCodes → after = [] := by
  obtain ⟨-, hnone, hlast, -, -⟩ :=
    rejection_explained_once "unit" "let x: Int32; let x: Int32; @ x +;" 8
  exact ⟨by decide +kernel, hnone.2 (by decide +kernel), hlast⟩

end SwiftDialect
