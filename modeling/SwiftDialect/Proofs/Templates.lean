import SwiftDialect.Diagnostic
import Mathlib.Logic.Basic

/-!
# Literals and holes

Every template can be taken apart in one way: into literals, each with a hole after it, and a literal at
the end. A literal before a hole has no opening brace in it and the name of a hole no closing one, and in
the last literal the first opening brace is never closed.

Main statement: a message is made of the literals of its template, with each hole replaced once
(`message_fills_each_hole_once`). What is put into a hole is kept as it is, with any braces in it.
-/

namespace SwiftDialect.Template

/-- A template that is taken apart. -/
structure Parts where
  /-- The literals, each with the name of the hole that comes after it. -/
  holes : List (List Char × List Char)
  /-- What comes after the last hole. -/
  last : List Char
  deriving DecidableEq, Repr

/-- A hole as it is written. -/
def braced (name : List Char) : List Char :=
  '{' :: name ++ ['}']

/-- What is put in the place of a hole: the value of the first parameter with that name, or the hole as it is
written if there is none. -/
def replacement (params : Params) (name : List Char) : List Char :=
  ((params.lookup (String.ofList name)).map String.toList).getD (braced name)

namespace Parts

/-- The parts put together, where `shown` says what stands in the place of a hole. -/
def assemble (shown : List Char → List Char) (p : Parts) : List Char :=
  p.holes.flatMap (fun h => h.1 ++ shown h.2) ++ p.last

/-- Are these the parts of the template? -/
structure Of (template : List Char) (p : Parts) : Prop where
  text : p.assemble braced = template
  literals : ∀ h ∈ p.holes, '{' ∉ h.1
  names : ∀ h ∈ p.holes, '}' ∉ h.2
  /-- After the first opening brace in what comes last, there is no closing one. -/
  unclosed : ∀ before after, p.last = before ++ '{' :: after → '{' ∉ before → '}' ∉ after

theorem assemble_cons (shown : List Char → List Char) (literal name : List Char)
    (holes : List (List Char × List Char)) (last : List Char) :
    assemble shown ⟨(literal, name) :: holes, last⟩ =
      literal ++ (shown name ++ assemble shown ⟨holes, last⟩) := by
  simp [assemble]

/-- A literal and a hole can be put in front. -/
theorem Of.cons {rest literal name : List Char} {p : Parts} (h : p.Of rest) (hliteral : '{' ∉ literal)
    (hname : '}' ∉ name) : Of (literal ++ (braced name ++ rest)) ⟨(literal, name) :: p.holes, p.last⟩ := by
  refine ⟨?_, List.forall_mem_cons.2 ⟨hliteral, h.literals⟩, List.forall_mem_cons.2 ⟨hname, h.names⟩,
    h.unclosed⟩
  rw [assemble_cons, ← h.text]

/-- What follows the first hole is taken apart as well. -/
theorem Of.tail {template : List Char} {h : List Char × List Char} {holes : List (List Char × List Char)}
    {last : List Char} (hof : Of template ⟨h :: holes, last⟩) :
    Of (assemble braced ⟨holes, last⟩) ⟨holes, last⟩ :=
  ⟨rfl, (List.forall_mem_cons.1 hof.literals).2, (List.forall_mem_cons.1 hof.names).2, hof.unclosed⟩

/-! ### One way to take a template apart -/

/-- There is one place where a character comes for the first time. -/
theorem eq_of_first {c : Char} {before before' after after' : List Char} (h : c ∉ before)
    (h' : c ∉ before') (heq : before ++ c :: after = before' ++ c :: after') :
    before = before' ∧ after = after' := by
  induction before generalizing before' with
  | nil =>
    cases before' with
    | nil => exact ⟨rfl, (List.cons.inj heq).2⟩
    | cons d before' =>
      obtain ⟨rfl, -⟩ := List.cons.inj heq
      exact absurd List.mem_cons_self h'
  | cons d before ih =>
    cases before' with
    | nil =>
      obtain ⟨rfl, -⟩ := List.cons.inj heq
      exact absurd List.mem_cons_self h
    | cons d' before' =>
      obtain ⟨rfl, htail⟩ := List.cons.inj heq
      obtain ⟨rfl, rfl⟩ := ih (List.not_mem_of_not_mem_cons h) (List.not_mem_of_not_mem_cons h') htail
      exact ⟨rfl, rfl⟩

/-- Every template can be taken apart. -/
theorem exists_of (template : List Char) : ∃ p, Of template p := by
  induction hn : template.length using Nat.strongRecOn generalizing template with
  | ind n ih =>
    by_cases hopen : '{' ∈ template
    · obtain ⟨literal, after, rfl, hliteral⟩ := List.eq_append_cons_of_mem hopen
      by_cases hclose : '}' ∈ after
      · -- the first opening brace and the first closing one after it make the first hole
        obtain ⟨name, rest, rfl, hname⟩ := List.eq_append_cons_of_mem hclose
        have hshorter : rest.length < n := by
          rw [← hn]
          simp only [List.length_append, List.length_cons]
          omega
        obtain ⟨p, hp⟩ := ih rest.length hshorter rest rfl
        exact ⟨_, by simpa [braced] using hp.cons hliteral hname⟩
      · -- the first opening brace is never closed, so it belongs to what comes last
        refine ⟨⟨[], literal ++ '{' :: after⟩, rfl, by simp, by simp, fun before rest heq hbefore => ?_⟩
        obtain ⟨-, rfl⟩ := eq_of_first hliteral hbefore heq
        exact hclose
    · refine ⟨⟨[], template⟩, rfl, by simp, by simp, fun before after heq _ => ?_⟩
      have hmem : '{' ∈ template := by
        rw [show template = before ++ '{' :: after from heq]
        exact List.mem_append_right _ List.mem_cons_self
      exact absurd hmem hopen

/-- What comes after the last hole does not begin with a literal and a hole. -/
theorem Of.ne_last {template : List Char} {p : Parts} (h : p.Of template) {literal name rest : List Char}
    (hliteral : '{' ∉ literal) : p.last ≠ literal ++ (braced name ++ rest) := by
  intro heq
  have hunclosed := h.unclosed literal (name ++ '}' :: rest) (by simpa [braced] using heq) hliteral
  exact hunclosed (List.mem_append_right _ List.mem_cons_self)

/-- No template can be taken apart in two ways. -/
theorem Of.unique {p : Parts} : ∀ {template : List Char} {p' : Parts}, p.Of template → p'.Of template →
    p' = p := by
  obtain ⟨holes, last⟩ := p
  induction holes with
  | nil =>
    rintro template ⟨_ | ⟨⟨literal', name'⟩, holes'⟩, last'⟩ h h'
    · obtain rfl : last' = last := h'.text.trans h.text.symm
      rfl
    · have heq := h.text.trans h'.text.symm
      rw [assemble_cons] at heq
      -- the last part has no hole, so the other decomposition has none either
      exact absurd heq (h.ne_last (h'.literals _ List.mem_cons_self))
  | cons hole holes ih =>
    obtain ⟨literal, name⟩ := hole
    rintro template ⟨_ | ⟨⟨literal', name'⟩, holes'⟩, last'⟩ h h'
    · have heq := h'.text.trans h.text.symm
      rw [assemble_cons] at heq
      exact absurd heq (h'.ne_last (h.literals _ List.mem_cons_self))
    · have heq := h.text.trans h'.text.symm
      rw [assemble_cons, assemble_cons] at heq
      simp only [braced, List.cons_append, List.append_assoc, List.nil_append] at heq
      -- both first holes begin at the first opening brace and end at the first closing one after it
      obtain ⟨hliteral, hnames⟩ :=
        eq_of_first (h.literals _ List.mem_cons_self) (h'.literals _ List.mem_cons_self) heq
      obtain ⟨hname, hrest⟩ :=
        eq_of_first (h.names _ List.mem_cons_self) (h'.names _ List.mem_cons_self) hnames
      obtain ⟨rfl, rfl⟩ := Parts.mk.inj (ih h.tail (hrest ▸ h'.tail))
      rw [show literal' = literal from hliteral.symm, show name' = name from hname.symm]

end Parts

/-! ### One pass over a template -/

theorem hole_eq_replacement (params : Params) (name : List Char) :
    hole params name = replacement params name := by
  have hkey : ∀ key : String, (key.toList == name) = (String.ofList name == key) := by
    intro key
    rw [Bool.eq_iff_iff, beq_iff_eq, beq_iff_eq]
    exact ⟨fun h => by rw [← h, String.ofList_toList], fun h => by rw [← h, String.toList_ofList]⟩
  unfold hole replacement
  induction params with
  | nil => rfl
  | cons param params ih =>
    rw [List.find?_cons, hkey, List.lookup_cons]
    cases String.ofList name == param.1 with
    | true => rfl
    | false => exact ih

/-- A literal is passed over. -/
theorem fillFrom_literal (params : Params) {literal : List Char} (h : '{' ∉ literal) (rest : List Char) :
    fillFrom params none (literal ++ rest) = literal ++ fillFrom params none rest := by
  induction literal with
  | nil => rfl
  | cons c literal ih =>
    obtain ⟨hc, hliteral⟩ := not_or.1 (mt List.mem_cons.2 h)
    rw [List.cons_append, fillFrom, if_neg (Ne.symm hc), ih hliteral, List.cons_append]

/-- The name of a hole is read up to the closing brace. -/
theorem fillFrom_name (params : Params) {name : List Char} (h : '}' ∉ name) (rest : List Char) :
    ∀ seen, fillFrom params (some seen) (name ++ '}' :: rest) =
      hole params (seen.reverse ++ name) ++ fillFrom params none rest := by
  induction name with
  | nil =>
    intro seen
    rw [List.nil_append, fillFrom, if_pos rfl, List.append_nil]
  | cons c name ih =>
    intro seen
    obtain ⟨hc, hname⟩ := not_or.1 (mt List.mem_cons.2 h)
    rw [List.cons_append, fillFrom, if_neg (Ne.symm hc), ih hname]
    simp

/-- A brace that is never closed is left as it stands. -/
theorem fillFrom_unclosed (params : Params) {name : List Char} (h : '}' ∉ name) :
    ∀ seen, fillFrom params (some seen) name = '{' :: (seen.reverse ++ name) := by
  induction name with
  | nil =>
    intro seen
    rw [fillFrom, List.append_nil]
  | cons c name ih =>
    intro seen
    obtain ⟨hc, hname⟩ := not_or.1 (mt List.mem_cons.2 h)
    rw [fillFrom, if_neg (Ne.symm hc), ih hname]
    simp

/-- One turn: a literal and the hole after it. -/
theorem fillFrom_hole (params : Params) {literal name : List Char} (hliteral : '{' ∉ literal)
    (hname : '}' ∉ name) (rest : List Char) :
    fillFrom params none (literal ++ (braced name ++ rest)) =
      literal ++ (replacement params name ++ fillFrom params none rest) := by
  rw [fillFrom_literal params hliteral]
  simp only [braced, List.cons_append, List.append_assoc, List.nil_append]
  rw [fillFrom, if_pos rfl, fillFrom_name params hname, ← hole_eq_replacement]
  rfl

/-- What comes after the last hole is left as it stands. -/
theorem fillFrom_last (params : Params) {last : List Char}
    (h : ∀ before after, last = before ++ '{' :: after → '{' ∉ before → '}' ∉ after) :
    fillFrom params none last = last := by
  by_cases hopen : '{' ∈ last
  · obtain ⟨before, after, rfl, hbefore⟩ := List.eq_append_cons_of_mem hopen
    rw [fillFrom_literal params hbefore, fillFrom, if_pos rfl,
      fillFrom_unclosed params (h before after rfl hbefore)]
    rfl
  · have hall := fillFrom_literal params hopen []
    rwa [List.append_nil, fillFrom, List.append_nil] at hall

/-- All turns, whatever the values are. -/
theorem Parts.Of.fillFrom {p : Parts} (params : Params) : ∀ {template : List Char}, p.Of template →
    Template.fillFrom params none template = p.assemble (replacement params) := by
  obtain ⟨holes, last⟩ := p
  induction holes with
  | nil =>
    intro template h
    rw [← h.text]
    exact fillFrom_last params h.unclosed
  | cons hole holes ih =>
    intro template h
    rw [← h.text, assemble_cons, assemble_cons, fillFrom_hole params (h.literals _ List.mem_cons_self)
      (h.names _ List.mem_cons_self), ih h.tail]

/-- Every template can be taken apart in exactly one way, and the message of a draft is made of these parts:
the literals as they stand, and in the place of each hole the value of the first parameter with its name, or
the hole itself if there is none. -/
theorem message_fills_each_hole_once (template : String) : ∃ p : Parts,
    (∀ p' : Parts, p'.Of template.toList ↔ p' = p) ∧
    ∀ (d : Draft) (params : Params), { d with template, params }.build.message =
      String.ofList (p.assemble (replacement params)) := by
  obtain ⟨p, hp⟩ := Parts.exists_of template.toList
  refine ⟨p, fun p' => ⟨hp.unique, fun heq => heq ▸ hp⟩, fun d params => ?_⟩
  rw [← hp.fillFrom params]
  rfl

/-- A value with braces of its own, a name that is given twice, a hole without a value, and a brace that is
never closed. -/
example : fill [("a", "\x7bb\x7d"), ("b", "1"), ("a", "2")] "\x7ba\x7d\x7bb\x7d\x7d \x7b\x7bb\x7d \x7ba" =
    "\x7bb\x7d1\x7d \x7b\x7bb\x7d \x7ba" := by
  decide

end SwiftDialect.Template
