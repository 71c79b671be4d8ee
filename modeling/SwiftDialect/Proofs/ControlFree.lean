import SwiftDialect.Diagnostic.Text
import SwiftDialect.Proofs.Explanation
import SwiftDialect.Proofs.Safety
import SwiftDialect.Proofs.Templates

/-!
# Messages without control characters

A message quotes the text that it is about: an unexpected character, a name, a literal. None of these can
bring a control character into it. Unexpected characters are shown by their code points if need be, names and
numbers are made of letters, digits and points, and tokens of other kinds are only described.

Main statement: no message and no hint about a text has a control character in it, so that each diagnostic is
shown on a line of its own, with its hint on the next (`diagnostics_shown_line_by_line`).
-/

namespace SwiftDialect

/-- Is the character one of the two blocks of control characters? -/
def IsControl (c : Char) : Prop :=
  c.toNat ≤ 0x1F ∨ 0x7F ≤ c.toNat ∧ c.toNat ≤ 0x9F

instance (c : Char) : Decidable (IsControl c) :=
  inferInstanceAs (Decidable (_ ∨ _))

/-- Is no character of the text a control character? -/
def ControlFree (text : String) : Prop :=
  ∀ c ∈ text.toList, ¬ IsControl c

instance (text : String) : Decidable (ControlFree text) :=
  List.decidableBAll (fun c => ¬ IsControl c) text.toList

theorem controlFree_append {a b : String} : ControlFree (a ++ b) ↔ ControlFree a ∧ ControlFree b := by
  simp only [ControlFree, String.toList_append, List.forall_mem_append]

theorem ControlFree.newline_notMem {text : String} (h : ControlFree text) : '\n' ∉ text.toList :=
  fun hmem => h _ hmem (by decide)

/-! ### Characters that can be quoted -/

theorem isControl_iff {c : Char} : Problem.isControl c ↔ IsControl c := by
  simp only [Problem.isControl, IsControl, Bool.or_eq_true, Bool.and_eq_true, decide_eq_true_eq]
  omega

theorem IsLetter.not_isControl {c : Char} (h : IsLetter c) : ¬ IsControl c := by
  rcases h with ⟨hlo, hhi⟩ | ⟨hlo, hhi⟩ | rfl
  · have hlo : 65 ≤ c.toNat := hlo
    have hhi : c.toNat ≤ 90 := hhi
    unfold IsControl
    omega
  · have hlo : 97 ≤ c.toNat := hlo
    have hhi : c.toNat ≤ 122 := hhi
    unfold IsControl
    omega
  · decide

theorem IsDigit.not_isControl {c : Char} (h : IsDigit c) : ¬ IsControl c := by
  have hlo : 48 ≤ c.toNat := h.1
  have hhi : c.toNat ≤ 57 := h.2
  unfold IsControl
  omega

/-- The digits of a number can be quoted, in decimal and in hexadecimal. -/
theorem not_isControl_of_mem_toDigits {b : Nat} (hone : 1 < b) (hb : b ≤ 16) (n : Nat) :
    ∀ c ∈ Nat.toDigits b n, ¬ IsControl c := by
  have hdigit : ∀ d < 16, ¬ IsControl (Nat.digitChar d) := by decide
  induction n using Nat.strongRecOn with
  | ind n ih =>
    by_cases hn : n < b
    · rw [Nat.toDigits_of_lt_base hn]
      intro c hc
      rw [List.mem_singleton.1 hc]
      exact hdigit n (Nat.lt_of_lt_of_le hn hb)
    · have hle := Nat.le_of_not_lt hn
      rw [Nat.toDigits_of_base_le hone hle, List.forall_mem_append, List.forall_mem_singleton]
      refine ⟨ih _ (Nat.div_lt_self (by omega) hone), hdigit _ ?_⟩
      exact Nat.lt_of_lt_of_le (Nat.mod_lt _ (by omega)) hb

theorem controlFree_toString (n : Nat) : ControlFree (toString n) := by
  rw [Nat.toString_eq_repr, Nat.repr_eq_ofList_toDigits, ControlFree, String.toList_ofList]
  exact not_isControl_of_mem_toDigits (by decide) (by decide) n

/-- Whatever character is shown in a message, a control character is not. -/
theorem controlFree_showChar (c : Char) : ControlFree (Problem.showChar c) := by
  unfold Problem.showChar
  split
  · rw [ControlFree, String.toList_ofList, Quoted.codePoint, List.forall_mem_append,
      List.forall_mem_append]
    have hopen : ControlFree "\\u\x7b" := by decide
    have hclose : ControlFree "\x7d" := by decide
    exact ⟨⟨hopen, not_isControl_of_mem_toDigits (by decide) (by decide) _⟩, hclose⟩
  · next hc =>
    intro d hd
    rw [Char.toString_eq_singleton, String.toList_singleton, List.mem_singleton] at hd
    rw [hd, ← isControl_iff]
    exact fun hcontrol => hc (Bool.or_eq_true_iff.2 (.inl hcontrol))

/-! ### Texts that can be quoted -/

theorem TokenKind.controlFree_display (k : TokenKind) : ControlFree k.display := by
  cases k <;> decide +kernel

theorem IsIdentifier.controlFree {text : String} (h : IsIdentifier text) : ControlFree text := by
  obtain ⟨⟨c, cs, htext, hc, hcs⟩, -⟩ := h
  rw [ControlFree, htext, List.forall_mem_cons]
  refine ⟨(isIdentifierStart_iff.1 hc).not_isControl, fun d hd => ?_⟩
  rcases isIdentifierRest_iff.1 (hcs d hd) with hd | hd
  · exact hd.not_isControl
  · exact hd.not_isControl

/-- The text of a number can be quoted. -/
theorem Lexeme.Valid.controlFree_of_number {x : Lexeme} (h : x.Valid)
    (hk : x.kind = .integerLiteral ∨ x.kind = .floatLiteral) : ControlFree x.text := by
  obtain ⟨kind, text⟩ := x
  rcases hk with rfl | rfl
  · exact fun c hc => (isDigit_iff.1 (h.2 c hc)).not_isControl
  · obtain ⟨whole, fraction, htext, hwhole, hfraction⟩ := h
    rw [ControlFree, htext, List.forall_mem_append, List.forall_mem_cons]
    exact ⟨fun c hc => (isDigit_iff.1 (hwhole c hc)).not_isControl, by decide,
      fun c hc => (isDigit_iff.1 (hfraction c hc)).not_isControl⟩

/-! ### Messages and hints -/

namespace Template

theorem mem_replacement {params : Params} {name : List Char} {c : Char}
    (h : c ∈ replacement params name) : c ∈ braced name ∨ ∃ param ∈ params, c ∈ param.2.toList := by
  unfold replacement at h
  cases hvalue : params.lookup (String.ofList name) with
  | none =>
    rw [hvalue] at h
    exact .inl h
  | some value =>
    rw [hvalue] at h
    obtain ⟨before, after, rfl, -⟩ := List.lookup_eq_some_iff.1 hvalue
    exact .inr ⟨_, List.mem_append_right _ List.mem_cons_self, h⟩

/-- The characters of a filled template are its own and those of the values. -/
theorem mem_fill {params : Params} {template : String} {c : Char} (h : c ∈ (fill params template).toList) :
    c ∈ template.toList ∨ ∃ param ∈ params, c ∈ param.2.toList := by
  obtain ⟨p, hp⟩ := Parts.exists_of template.toList
  rw [fill, String.toList_ofList, hp.fillFrom params, Parts.assemble, List.mem_append,
    List.mem_flatMap] at h
  rw [← hp.text, Parts.assemble, List.mem_append, List.mem_flatMap]
  rcases h with ⟨hole, hmem, hc⟩ | hc
  · rcases List.mem_append.1 hc with hc | hc
    · exact .inl (.inl ⟨hole, hmem, List.mem_append_left _ hc⟩)
    · refine (mem_replacement hc).imp_left fun hc => .inl ⟨hole, hmem, List.mem_append_right _ hc⟩
  · exact .inl (.inr hc)

end Template

/-- What is fixed about each kind of problem is free of control characters. -/
theorem Entry.controlFree_catalogue : ∀ e ∈ catalogue,
    ControlFree e.severity.display ∧ ControlFree e.code ∧ ControlFree e.template := by
  decide +kernel

namespace Problem

/-- Are the particulars of the problem free of control characters? -/
def Plain (pr : Problem) : Prop :=
  ∀ param ∈ pr.params, ControlFree param.2

variable {pr : Problem}

theorem Plain.message (h : pr.Plain) (place : Location) : ControlFree (pr.diagnose place).message := by
  obtain ⟨-, -, htemplate⟩ := Entry.controlFree_catalogue _ pr.entry_mem_catalogue
  intro c hc
  rcases Template.mem_fill hc with hc | ⟨param, hparam, hc⟩
  · exact htemplate c hc
  · exact h param hparam c hc

theorem Plain.help (h : pr.Plain) (place : Location) : ControlFree (pr.diagnose place).help := by
  change ControlFree pr.help
  cases pr with
  | unresolvedName name =>
    have hname : ControlFree name := h ("name", name) List.mem_cons_self
    rw [Problem.help, controlFree_append, controlFree_append]
    exact ⟨⟨by decide +kernel, hname⟩, by decide +kernel⟩
  | unsupported feature =>
    rw [Problem.help]
    decide +kernel
  | nestedTooDeeply limit =>
    rw [Problem.help]
    decide +kernel
  | _ => exact fun c hc => absurd hc List.not_mem_nil

/-- Nothing that stands before the message has a control character in it either. -/
theorem Plain.display (h : pr.Plain) (place : Location) : ControlFree (pr.diagnose place).display := by
  obtain ⟨hseverity, hcode, -⟩ := Entry.controlFree_catalogue _ pr.entry_mem_catalogue
  simp only [Diagnostic.display, controlFree_append]
  exact ⟨⟨⟨⟨hseverity, by decide⟩, hcode⟩, by decide⟩, h.message place⟩

end Problem

/-! ### What can be wrong with a text -/

theorem plain_missing (kind : TokenKind) (t : Token) : (missing kind t).Plain :=
  List.forall_mem_cons.2 ⟨kind.controlFree_display,
    List.forall_mem_singleton.2 t.kind.controlFree_display⟩

theorem plain_unexpectedToken (t : Token) : (Problem.unexpectedToken t.kind.display).Plain :=
  List.forall_mem_singleton.2 t.kind.controlFree_display

theorem eq_of_integerValue_error {text : String} {e : LiteralError} (h : integerValue text = .error e) :
    e = .integer text := by
  unfold integerValue at h
  dsimp only at h
  split at h
  · cases h
  · exact (Except.error.inj h).symm

theorem eq_of_floatValue_error {text : String} {e : LiteralError} (h : floatValue text = .error e) :
    e = .float text := by
  unfold floatValue at h
  split at h
  · cases h
  · exact (Except.error.inj h).symm

/-- A literal without a value is a number, and the problem with it names its text. -/
theorem LiteralError.plain {t : Token} {e : LiteralError} (hvalid : t.lexeme.Valid)
    (h : literalError? t = some e) : e.problem.Plain := by
  -- digits and a point are no control characters, so the text can be quoted
  have hquoted : ∀ kind, ControlFree kind → (t.kind = .integerLiteral ∨ t.kind = .floatLiteral) →
      (Problem.invalidLiteral kind t.text).Plain := fun kind hkind hk =>
    List.forall_mem_cons.2 ⟨hkind, List.forall_mem_singleton.2 (hvalid.controlFree_of_number hk)⟩
  unfold literalError? at h
  split at h
  · next hk =>
    split at h
    · cases h
    · next herror =>
      obtain rfl := Option.some.inj h
      rw [eq_of_integerValue_error herror]
      exact hquoted "integer" (by decide) (.inl hk)
  · next hk =>
    split at h
    · cases h
    · next herror =>
      obtain rfl := Option.some.inj h
      rw [eq_of_floatValue_error herror]
      exact hquoted "floating point" (by decide) (.inr hk)
  · cases h

/-- An expression is rejected for a problem that can be told. -/
theorem Stuck.plain {scopes : Scopes} {f : Phrase} {room : Nat} {used : List Token} {bad : Token}
    {pr : Problem} {moves : List Move} (h : Stuck scopes f room used bad pr moves)
    (hvalid : bad.lexeme.Valid) : pr.Plain := by
  induction h with
  | tooDeep bad => exact List.forall_mem_singleton.2 (controlFree_toString _)
  | invalid room h => exact LiteralError.plain hvalid h
  | unresolved room hk h =>
    -- only here and in a number is the text of the token itself quoted
    rw [Token.lexeme, hk] at hvalid
    exact List.forall_mem_singleton.2 (IsIdentifier.controlFree hvalid)
  | conditional room hk => exact List.forall_mem_singleton.2 (by decide +kernel)
  | unexpected room hk => exact plain_unexpectedToken _
  | unclosed l he hop hk => exact plain_missing _ _
  | sign t h ih => exact ih hvalid
  | inside l h ih => exact ih hvalid
  | first h ih => exact ih hvalid
  | later he op h ih => exact ih hvalid

theorem StuckSentence.plain {scopes : Scopes} {used : List Token} {bad : Token} {pr : Problem}
    {moves : List Move} (h : StuckSentence scopes used bad pr moves) (hvalid : bad.lexeme.Valid) :
    pr.Plain := by
  cases h with
  | loop hk => exact List.forall_mem_singleton.2 (by decide +kernel)
  | start hk => exact plain_unexpectedToken _
  | type intro ident colon hk => exact plain_unexpectedToken _
  | inside hk h => exact h.plain hvalid
  | _ => exact plain_missing _ _

theorem Segment.plain_of_problem {segment : Segment} {pr : Problem} (h : segment.problem? = some pr) :
    pr.Plain := by
  unfold problem? at h
  split at h
  · obtain rfl := Option.some.inj h
    exact List.forall_mem_singleton.2 (controlFree_showChar _)
  · obtain rfl := Option.some.inj h
    exact fun param hparam => absurd hparam List.not_mem_nil
  · cases h

/-- Does the diagnostic report a problem whose particulars are free of control characters? -/
def Diagnostic.Plain (d : Diagnostic) : Prop :=
  ∃ pr : Problem, ∃ place, pr.Plain ∧ d = pr.diagnose place

section Texts

variable {name text : String} {w : Nat} {segments : List Segment}

theorem valid_of_mem_pulls (hseg : IsSegmentation text.toList segments) {p : Pull}
    (hp : p ∈ pulls w [] segments) : p.token.lexeme.Valid := by
  obtain ⟨body, eof, hpulls, -, hend⟩ := Lexer.toEnd_pulls hseg (Lookahead.spells_text _) "" w .empty
  have hmem : p.token ∈ (pulls w [] segments).map Pull.token := List.mem_map_of_mem hp
  exact Scanner.valid_of_yields hend.yields _ (hpulls ▸ hmem)

theorem plain_of_mem_pulls {p : Pull} (hp : p ∈ pulls w [] segments) : ∀ d ∈ p.reports, d.Plain := by
  intro d hd
  obtain ⟨segment, problem, place, hproblem, rfl⟩ := exists_problem_of_mem_pulls hp hd
  exact ⟨problem, place, Segment.plain_of_problem hproblem, rfl⟩

theorem plain_of_heard (hseg : IsSegmentation text.toList segments) {scopes : Scopes} {ss : List Sentence}
    {taken : List Pull} (htokens : taken.map Pull.token = ss.flatMap Sentence.tokens)
    (htaken : ∀ p ∈ taken, p ∈ pulls w [] segments) : ∀ d ∈ Sentence.heard scopes ss taken, d.Plain := by
  intro d hd
  obtain ⟨p, hp, hdp | ⟨hk, rfl⟩⟩ := Sentence.mem_heard ss htokens hd
  · exact plain_of_mem_pulls (htaken p hp) d hdp
  · -- the text of another token may hold anything, but only names are declared
    have hvalid := valid_of_mem_pulls hseg (htaken p hp)
    rw [Token.lexeme, hk] at hvalid
    exact ⟨.redeclaredName p.token.text, p.token.location,
      List.forall_mem_singleton.2 (IsIdentifier.controlFree hvalid), rfl⟩

end Texts

theorem plain_of_tokenizeText (name text : String) (tabWidth : Nat) :
    ∀ d ∈ (tokenizeText name text tabWidth).diagnostics, d.Plain := by
  obtain ⟨segments, hseg⟩ := exists_segmentation text.toList
  rw [(tokenizeText_eq name tabWidth hseg).2.1]
  intro d hd
  obtain ⟨p, hp, hdp⟩ := List.mem_flatMap.1 hd
  exact plain_of_mem_pulls hp d hdp

theorem plain_of_parseText (name text : String) (tabWidth : Nat) :
    ∀ d ∈ (parseText name text tabWidth).diagnostics, d.Plain := by
  obtain ⟨segments, hseg⟩ := exists_segmentation text.toList
  rcases parseText_heard name tabWidth hseg with
    ⟨ss, last, p, hpulls, htokens, -, -, hdiagnostics⟩ |
    ⟨ss, last, final, rest, used, bad, pr, moves, hpulls, htokens, hfinal, hst, -, hdiagnostics⟩
  · have hmem : ∀ q ∈ last ++ [p], q ∈ pulls tabWidth [] segments := hpulls ▸ fun _ hq => hq
    obtain ⟨hlast, hp⟩ := List.forall_mem_append.1 hmem
    rw [hdiagnostics]
    exact List.forall_mem_append.2
      ⟨plain_of_heard hseg htokens hlast, plain_of_mem_pulls (hp p List.mem_cons_self)⟩
  · have hmem : ∀ q ∈ last ++ (final ++ rest), q ∈ pulls tabWidth [] segments :=
      hpulls ▸ fun _ hq => hq
    obtain ⟨hlast, hmore⟩ := List.forall_mem_append.1 hmem
    obtain ⟨hseen, -⟩ := List.forall_mem_append.1 hmore
    -- the rejected token was scanned, so its text has the shape of its kind
    have hbad : bad ∈ final.map Pull.token := by
      rw [hfinal]
      exact List.mem_append_right _ List.mem_cons_self
    obtain ⟨q, hq, rfl⟩ := List.mem_map.1 hbad
    rw [hdiagnostics, List.forall_mem_append, List.forall_mem_append, List.forall_mem_singleton]
    refine ⟨plain_of_heard hseg htokens hlast, fun d hd => ?_, pr, q.token.location, ?_, rfl⟩
    · obtain ⟨q, hq, hdq⟩ := List.mem_flatMap.1 hd
      exact plain_of_mem_pulls (hseen q hq) d hdq
    · exact hst.stuck.plain (valid_of_mem_pulls hseg (hseen q hq))

/-! ### Lines -/

theorem Position.controlFree_render (p : Position) : ControlFree p.render := by
  simp only [render, controlFree_append]
  exact ⟨⟨controlFree_toString _, by decide⟩, controlFree_toString _⟩

theorem FilePosition.newline_notMem_render {p : FilePosition} (h : '\n' ∉ p.file.toList) :
    '\n' ∉ p.render.toList := by
  simp only [render, String.toList_append, List.mem_append, not_or]
  exact ⟨⟨h, by decide⟩, p.position.controlFree_render.newline_notMem⟩

theorem LineTable.file_mem_of_expand {t : LineTable} {l : Location} {p : FilePosition}
    (h : t.expand l = some p) : p.file ∈ t.files := by
  unfold expand at h
  split at h
  · cases h
  · obtain ⟨start, -, hentry⟩ := Option.bind_eq_some_iff.1 h
    obtain ⟨file, hfile, rfl⟩ := Option.map_eq_some_iff.1 hentry
    exact List.mem_of_getElem? hfile

/-- Texts without line feeds, each with a line feed after it, are cut apart at the line feeds. -/
theorem Text.splitOn_join {lines : List String} (h : ∀ l ∈ lines, '\n' ∉ l.toList) :
    (String.join (lines.map (· ++ "\n"))).toList.splitOn '\n' = lines.map String.toList ++ [[]] := by
  induction lines with
  | nil => rfl
  | cons l lines ih =>
    obtain ⟨hl, hlines⟩ := List.forall_mem_cons.1 h
    have hfirst : (String.join ((l :: lines).map (· ++ "\n"))).toList =
        l.toList ++ '\n' :: (String.join (lines.map (· ++ "\n"))).toList := by
      simp [String.toList_join]
    rw [hfirst, List.splitOn_append_cons_self, List.splitOn_eq_singleton hl, ih hlines]
    rfl

namespace Diagnostic

variable {style : TextStyle} {table : LineTable}

/-- The lines of a diagnostic: one with its place and the message, and one with the hint if there is one and
hints are shown. -/
def plainLines (style : TextStyle) (table : LineTable) (d : Diagnostic) : List String :=
  ((d.position? table).elim "" (·.render ++ ": ") ++ d.display) ::
    if style.showHelp ∧ d.help ≠ "" then ["     = help: " ++ d.help] else []

/-- Without colours and source lines, a diagnostic is shown as its lines. -/
theorem toText_eq_join (hcolors : style.colors = false) (hsource : style.showSource = false)
    (source : Option String) (d : Diagnostic) :
    d.toText style table source = String.join ((d.plainLines style table).map (· ++ "\n")) := by
  have hheader : d.header style table =
      (d.position? table).elim "" (·.render ++ ": ") ++ d.display ++ "\n" := by
    unfold header display Severity.styled
    rw [if_neg (by simp [hcolors])]
    cases d.position? table <;> simp [String.append_assoc]
  unfold toText plainLines helpLine
  rw [hheader, hsource]
  -- there is a line for the hint only if hints are shown and there is one
  by_cases hshown : style.showHelp = true ∧ d.help ≠ ""
  · obtain ⟨hhelp, hsome⟩ := hshown
    simp [hhelp, hsome, String.append_assoc]
  · rw [if_neg hshown]
    cases hhelp : style.showHelp with
    | false => simp
    | true =>
      have hnone : d.help = "" := by simpa [hhelp] using hshown
      simp [hnone]

theorem listToText_eq_join (hcolors : style.colors = false) (hsource : style.showSource = false)
    (source : Option String) (ds : List Diagnostic) : listToText style table source ds =
      String.join ((ds.flatMap (plainLines style table)).map (· ++ "\n")) := by
  rw [← String.toList_inj]
  simp only [listToText, toText_eq_join hcolors hsource, String.toList_join, List.flatMap_map,
    List.flatMap_assoc]

/-- No line of a plain diagnostic is broken, unless the name of the file is. -/
theorem Plain.newline_notMem {d : Diagnostic} (h : d.Plain)
    (htable : ∀ file ∈ table.files, '\n' ∉ file.toList) :
    ∀ l ∈ d.plainLines style table, '\n' ∉ l.toList := by
  obtain ⟨pr, place, hpr, rfl⟩ := h
  have hplace : '\n' ∉ (((pr.diagnose place).position? table).elim "" (·.render ++ ": ")).toList := by
    cases hp : (pr.diagnose place).position? table with
    | none => exact List.not_mem_nil
    | some p =>
      obtain ⟨l, -, hexpand⟩ := Option.bind_eq_some_iff.1 hp
      have hrender := FilePosition.newline_notMem_render (htable _ (LineTable.file_mem_of_expand hexpand))
      rw [Option.elim_some, String.toList_append, List.mem_append, not_or]
      exact ⟨hrender, by decide⟩
  unfold plainLines
  rw [List.forall_mem_cons]
  refine ⟨?_, ?_⟩
  · rw [String.toList_append, List.mem_append, not_or]
    exact ⟨hplace, (hpr.display place).newline_notMem⟩
  · split
    · rw [List.forall_mem_singleton]
      exact (controlFree_append.2 ⟨by decide +kernel, hpr.help place⟩).newline_notMem
    · exact fun l hl => absurd hl List.not_mem_nil

/-- Plain diagnostics are shown line by line. -/
theorem splitOn_listToText (hcolors : style.colors = false) (hsource : style.showSource = false)
    (source : Option String) {ds : List Diagnostic} (hds : ∀ d ∈ ds, d.Plain)
    (htable : ∀ file ∈ table.files, '\n' ∉ file.toList) :
    (listToText style table source ds).toList.splitOn '\n' =
      (ds.flatMap (plainLines style table)).map String.toList ++ [[]] := by
  rw [listToText_eq_join hcolors hsource, Text.splitOn_join]
  intro l hl
  obtain ⟨d, hd, hl⟩ := List.mem_flatMap.1 hl
  exact (hds d hd).newline_notMem htable l hl

end Diagnostic

/-- No message and no hint about a text has a control character in it. So the diagnostics are shown line by
line, in the order in which they are reported: one line for each, with its hint on a line after it if it has
one and hints are shown. -/
theorem diagnostics_shown_line_by_line (name text : String) (tabWidth : Nat) :
    (∀ d ∈ (parseText name text tabWidth).diagnostics ++ (tokenizeText name text tabWidth).diagnostics,
      ControlFree d.message ∧ ControlFree d.help) ∧
    ∀ (style : TextStyle) (source : Option String), style.colors = false → style.showSource = false →
      '\n' ∉ name.toList →
      (Diagnostic.listToText style (parseText name text tabWidth).lines source
          (parseText name text tabWidth).diagnostics).toList.splitOn '\n' =
        ((parseText name text tabWidth).diagnostics.flatMap
          (Diagnostic.plainLines style (parseText name text tabWidth).lines)).map String.toList ++ [[]] ∧
      (Diagnostic.listToText style (tokenizeText name text tabWidth).lines source
          (tokenizeText name text tabWidth).diagnostics).toList.splitOn '\n' =
        ((tokenizeText name text tabWidth).diagnostics.flatMap
          (Diagnostic.plainLines style (tokenizeText name text tabWidth).lines)).map String.toList ++
            [[]] := by
  have hparse := plain_of_parseText name text tabWidth
  have htokenize := plain_of_tokenizeText name text tabWidth
  refine ⟨?_, fun style source hcolors hsource hname => ?_⟩
  · intro d hd
    obtain ⟨pr, place, hpr, rfl⟩ := List.forall_mem_append.2 ⟨hparse, htokenize⟩ d hd
    exact ⟨hpr.message place, hpr.help place⟩
  · -- the name of the file is the only text in a line that is not known to be free of line feeds
    have hlines : ∀ s : Scanner (List Char), s.Sound name →
        ∀ file ∈ s.lines.files, '\n' ∉ file.toList := by
      intro s hs file hfile
      rw [hs.files, List.mem_singleton] at hfile
      exact hfile ▸ hname
    have hstart := Scanner.sound_start name text.toList tabWidth
    refine ⟨Diagnostic.splitOn_listToText hcolors hsource source hparse (hlines _ ?_),
      Diagnostic.splitOn_listToText hcolors hsource source htokenize (hlines _ ?_)⟩
    · exact (Analysis.reaches_parsed name text.toList tabWidth _).sound (hstart _)
    · exact (Analysis.reaches_tokenized name text.toList tabWidth .empty).sound (hstart _)

/-- An escape character, a string that hides a carriage return, and a name without a meaning. -/
theorem diagnostics_of_escape_shown_line_by_line :
    '\n' ∉ "unit".toList ∧
    (Diagnostic.listToText { showSource := false } (parseText "unit" "\x1b\"\r\"+y;" 8).lines none
        (parseText "unit" "\x1b\"\r\"+y;" 8).diagnostics).toList.splitOn '\n' =
      ["unit:1:1: error[E0001]: unexpected character '\\u\x7b1b\x7d'",
        "unit:1:6: error[E0020]: use of unresolved identifier 'y'",
        "     = help: declare 'y' with `let` or `var` before this use", ""].map String.toList := by
  have hlines : (parseText "unit" "\x1b\"\r\"+y;" 8).diagnostics.flatMap
      (Diagnostic.plainLines { showSource := false } (parseText "unit" "\x1b\"\r\"+y;" 8).lines) =
        ["unit:1:1: error[E0001]: unexpected character '\\u\x7b1b\x7d'",
          "unit:1:6: error[E0020]: use of unresolved identifier 'y'",
          "     = help: declare 'y' with `let` or `var` before this use"] := by
    decide +kernel
  have hname : '\n' ∉ "unit".toList := by decide
  have hshown := (diagnostics_shown_line_by_line "unit" "\x1b\"\r\"+y;" 8).2 { showSource := false } none
    rfl rfl hname
  rw [hlines] at hshown
  exact ⟨hname, hshown.1⟩

end SwiftDialect
